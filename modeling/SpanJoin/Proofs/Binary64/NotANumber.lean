import SpanJoin.Proofs.Binary64.Rounding

/-!
# Results that are numbers

What is not a number comes from something that is not a number, or from infinities and zeros that
cancel out. Rounding never gives it and packing keeps it out (`isNaN_roundWithAccuracy`,
`isNaN_pack`), so an integer that is turned into a floating-point number stays a number
(`isNaN_ofInt64`), and so does a number in decimal notation (`isNaN_ofScientific`).
-/

namespace SpanJoin.Binary64

open Float.Model UnpackedFloat

/-! ## Packing -/

theorem isNaN_unpackedOf (s : Sign) (m : ℕ) (e : ℤ) : (unpackedOf s m e).isNaN = false := by
  unfold unpackedOf
  split <;> rfl

/-- Fields whose exponent is not the last one are those of a number. -/
theorem isNaN_unpack_packComponents (s : Sign) {e : BitVec 11} (m : BitVec 52) (he : e ≠ -1#11) :
    (UnpackedFloat.unpack .binary64 (packComponents .binary64 s e m)).isNaN = false := by
  rw [unpack_packComponents s m he]
  split
  · exact isNaN_unpackedOf ..
  · exact isNaN_unpackedOf ..

theorem unpack_packedInfinity (s : Sign) :
    UnpackedFloat.unpack .binary64 (packedInfinity .binary64 s) = .infinity s := by
  change UnpackedFloat.unpack .binary64 (packComponents .binary64 s (-1#11) 0#52) = _
  rw [unpack_of_fields _ (by rw [unpackSign_packComponents, Sign.ofBitVec_toBitVec])
    (unpackExponent_packComponents ..) (unpackMantissa_packComponents ..), if_pos rfl, if_pos rfl]

/-- A number is packed as a number. -/
theorem isNaN_pack {u : UnpackedFloat} (h : u.isNaN = false) :
    (Float.Model.pack u).isNaN = false := by
  change (UnpackedFloat.unpack .binary64 (UnpackedFloat.pack .binary64 u)).isNaN = false
  cases u with
  | notANumber => cases h
  | infinity s =>
    rw [UnpackedFloat.pack, unpack_packedInfinity]
    rfl
  | zero s =>
    rw [UnpackedFloat.pack, unpack_packedZero]
    rfl
  | finite s m e hm =>
    rw [UnpackedFloat.pack]
    generalize (e + Format.binary64.exponentBias +
      Format.binary64.mantissaBitsWithoutImplicit).toNat = biased
    split
    · rw [unpack_packedInfinity]
      rfl
    · rename_i low
      split
      · -- the exponent is not the last one, which is that of the infinities
        refine isNaN_unpack_packComponents s _ fun last => low ?_
        have field := congrArg BitVec.toNat last
        change biased % 2 ^ 11 = 2047 at field
        change 2 ^ 11 ≤ biased + 1
        omega
      · exact isNaN_unpack_packComponents s _ (by decide)

/-- What is not a number is none with the other sign either. -/
theorem isNaN_neg (x : Float) : (-x).isNaN = x.isNaN := by
  change (Float.Model.pack x.toModel.unpack.neg).isNaN = x.toModel.unpack.isNaN
  cases hx : x.toModel.unpack with
  | notANumber => rfl
  | infinity | zero | finite => exact isNaN_pack rfl

/-! ## Rounding -/

theorem isNaN_roundWithAccuracy (s : Sign) (m : ℕ) (e : ℤ) (a : Accuracy) :
    (roundWithAccuracy .binary64 s m e a).isNaN = false := by
  unfold roundWithAccuracy
  dsimp only
  split <;> rfl

/-- Zero or another finite number. -/
def IsFinite : UnpackedFloat → Prop
  | .zero _ | .finite .. => True
  | _ => False

/-- A finite number other than zero. -/
def IsNonzero : UnpackedFloat → Prop
  | .finite .. => True
  | _ => False

theorem IsNonzero.isFinite {u : UnpackedFloat} (h : IsNonzero u) : IsFinite u := by
  cases u with
  | finite => trivial
  | infinity | notANumber | zero => exact h.elim

theorem isFinite_unpackedOf (s : Sign) (m : ℕ) (e : ℤ) : IsFinite (unpackedOf s m e) := by
  unfold unpackedOf
  split <;> trivial

theorem isNonzero_unpackedOf (s : Sign) {m : ℕ} (e : ℤ) (hm : m ≠ 0) :
    IsNonzero (unpackedOf s m e) := by
  rw [unpackedOf, dif_neg hm]
  trivial

section

variable {u v : UnpackedFloat}

theorem isNaN_mul (hu : IsFinite u) (hv : IsFinite v) :
    (UnpackedFloat.mul .binary64 u v).isNaN = false := by
  cases u with
  | infinity | notANumber => exact hu.elim
  | zero =>
    cases v with
    | infinity | notANumber => exact hv.elim
    | zero | finite => rfl
  | finite =>
    cases v with
    | infinity | notANumber => exact hv.elim
    | zero => rfl
    | finite => exact isNaN_roundWithAccuracy ..

theorem isNaN_div (hu : IsFinite u) (hv : IsNonzero v) :
    (UnpackedFloat.div .binary64 u v).isNaN = false := by
  cases v with
  | infinity | notANumber | zero => exact hv.elim
  | finite =>
    cases u with
    | infinity | notANumber => exact hu.elim
    | zero => rfl
    | finite => exact isNaN_roundWithAccuracy ..

end

/-! ## Decimal notation -/

theorem isNaN_unpacked_ofScientific (m : ℕ) (e : ℤ) :
    (UnpackedFloat.ofScientific .binary64 m e).isNaN = false := by
  unfold UnpackedFloat.ofScientific
  split_ifs
  · rfl
  · rfl
  · rfl
  · exact isNaN_roundWithAccuracy ..
  · exact isNaN_roundWithAccuracy ..

/-- The powers of ten by which short numbers are scaled. -/
theorem isNonzero_powersOfTen {e : ℕ} (he : e < Float.exactlyRepresentablePowersOfTen.size) :
    IsNonzero Float.exactlyRepresentablePowersOfTen[e].toModel.unpack := by
  have each : ∀ i : Fin 23, ∃ p ∈ parts? Float.exactlyRepresentablePowersOfTen[i],
      p.significand ≠ 0 := by
    decide
  obtain ⟨p, hp, positive⟩ := each ⟨e, he⟩
  have unpack := (unpack_of_parts? hp).2
  change Float.exactlyRepresentablePowersOfTen[e].toModel.unpack = _ at unpack
  rw [unpack]
  exact isNonzero_unpackedOf _ _ positive

/-- A natural number of up to 53 bits is finite as a floating-point number. -/
theorem isFinite_unpack_toFloat {m : ℕ} (hm : m < 2 ^ 53) :
    IsFinite m.toUInt64.toFloat.toModel.unpack := by
  have toNat : m.toUInt64.toNat = m := Nat.mod_eq_of_lt (hm.trans (by norm_num))
  obtain ⟨n, e, eq, normal, le, -⟩ := ofNat_eq hm
  change IsFinite (Float.Model.pack (UnpackedFloat.ofNat .binary64 m.toUInt64.toNat)).unpack
  rw [toNat, eq, unpack_model_pack _ normal (by omega)]
  exact isFinite_unpackedOf ..

/-- A number in decimal notation is a number, if perhaps an infinite one. -/
theorem isNaN_ofScientific (m : ℕ) (negative : Bool) (e : ℕ) :
    (Float.ofScientific m negative e).isNaN = false := by
  unfold Float.ofScientific
  split
  · rename_i short
    have finite := isFinite_unpack_toFloat short.1
    have power := isNonzero_powersOfTen (Nat.lt_succ_of_le short.2)
    dsimp only
    split
    · exact isNaN_pack (isNaN_div finite power)
    · exact isNaN_pack (isNaN_mul finite power.isFinite)
  · exact isNaN_pack (isNaN_unpacked_ofScientific _ _)

theorem isNaN_ofInt64 (n : Int64) : (ofInt64 n).isNaN = false := by
  obtain ⟨v, hv, -⟩ := ofInt64_rounded n
  rw [Bool.eq_false_iff]
  intro h
  rw [value?_eq_none_iff.2 h] at hv
  cases hv

end SpanJoin.Binary64
