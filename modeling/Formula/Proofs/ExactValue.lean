import Formula.Proofs.Nearest

/-!
# Exact values of numbers

What a binary64 number is worth is said here by the fields of its bits alone: a sign, a significand
and a power of two (`value?`). The units of its pattern say the same (`value?_eq`), so that the
pattern nearest to a decimal is the number nearest to it, among numbers of both signs
(`rounds_of_closest`).
-/

namespace Formula

namespace Binary64

open Float.Model (UnpackedFloat)
open Float.Model.UnpackedFloat

/-! ## The fields of a number -/

/-- The value of a number that is taken apart, if it is finite. -/
def unpackedValue? : UnpackedFloat → Option ℚ
  | .infinity _ | .notANumber => none
  | .zero _ => some 0
  | .finite sign significand exponent _ => some (sign.apply significand * 2 ^ exponent)

/-- The exact value of a number, if it is finite. -/
def value? (x : Float) : Option ℚ := unpackedValue? x.toModel.unpack

/-- The bits that count binades. -/
def exponentBits (x : Float) : BitVec 11 := @unpackExponent .binary64 x.toBits.toBitVec

/-- The bits of the significand, without the one that is implied. -/
def significandBits (x : Float) : BitVec 52 := @unpackMantissa .binary64 x.toBits.toBitVec

/-- The sign bit. -/
def sign (x : Float) : Sign := .ofBitVec (@unpackSign .binary64 x.toBits.toBitVec)

theorem toNat_exponentBits (x : Float) :
    (exponentBits x).toNat = x.toBits.toNat / Nat.pow 2 52 % Nat.pow 2 11 := by
  simp [exponentBits, unpackExponent, Nat.shiftRight_eq_div_pow]

theorem toNat_significandBits (x : Float) :
    (significandBits x).toNat = x.toBits.toNat % Nat.pow 2 52 := by
  simp [significandBits, unpackMantissa]

theorem toNat_signBit (x : Float) :
    (@unpackSign .binary64 x.toBits.toBitVec).toNat = x.toBits.toNat / signBit := by
  have hextract : @unpackSign .binary64 x.toBits.toBitVec = x.toBits.toBitVec.extractLsb 63 63 :=
    rfl
  have hlt : x.toBits.toNat < Nat.pow 2 64 := x.toBits.toBitVec.isLt
  simp only [Nat.pow_eq] at hlt
  rw [hextract, BitVec.extractLsb_toNat, Nat.shiftRight_eq_div_pow, signBit]
  simp only [Nat.pow_eq]
  exact Nat.mod_eq_of_lt (by omega)

/-- The binade and the lowest bits are the magnitude. -/
theorem magnitude_eq (x : Float) :
    magnitude x = (exponentBits x).toNat * Nat.pow 2 52 + (significandBits x).toNat := by
  rw [toNat_exponentBits, toNat_significandBits, magnitude, signBit]
  simp only [Nat.pow_eq]
  omega

/-- All exponent bits are set in what is not finite, and there only. -/
theorem exponentBits_eq_iff (x : Float) : exponentBits x = -1#11 ↔ infinity ≤ magnitude x := by
  rw [← BitVec.toNat_inj, toNat_exponentBits, magnitude, signBit, infinity,
    BitVec.neg_one_eq_allOnes, BitVec.toNat_allOnes]
  simp only [Nat.pow_eq]
  omega

/-- The sign as a factor. -/
def signFactor (x : Float) : ℚ := if isNegative x then -1 else 1

theorem cast_sign_apply (x : Float) (n : ℕ) : (((sign x).apply n : ℤ) : ℚ) = signFactor x * n := by
  have hclear : @unpackSign .binary64 x.toBits.toBitVec = 0#1 ↔ x.toBits.toNat < signBit := by
    rw [← BitVec.toNat_inj, toNat_signBit]
    exact Nat.div_eq_zero_iff_lt (by decide)
  unfold sign signFactor isNegative Sign.ofBitVec
  by_cases hsign : x.toBits.toNat < signBit
  · rw [if_pos (hclear.mpr hsign)]
    simp [Sign.apply, hsign]
  · rw [if_neg (mt hclear.mp hsign)]
    simp [Sign.apply, hsign]

/-! ## Units -/

theorem toNat_significand (low : BitVec 52) : (1#1 ++ low).toNat = Nat.pow 2 52 + low.toNat := by
  rw [BitVec.toNat_append, ← Nat.shiftLeft_add_eq_or_of_lt low.isLt]
  rfl

theorem mul_unit (n : ℚ) : n * 2 ^ (-1074 : ℤ) = n / unitsPerOne := by
  rw [cast_unitsPerOne, zpow_neg, ← div_eq_mul_inv]
  rfl

/-- From the second binade on, the unit doubles with each. -/
theorem mul_unit_of_binade (n : ℕ) {binade : ℕ} (h : binade ≠ 0) :
    (n : ℚ) * 2 ^ ((binade : ℤ) - 1075) =
      (n * Nat.pow 2 (binade - 1) : ℕ) / unitsPerOne := by
  obtain ⟨doublings, rfl⟩ := Nat.exists_eq_succ_of_ne_zero h
  have hsplit : ((doublings.succ : ℕ) : ℤ) - 1075 = (doublings : ℤ) + -1074 := by
    push_cast
    ring
  rw [hsplit, zpow_add₀ (by norm_num), ← mul_assoc, mul_unit, Nat.cast_mul, Nat.succ_sub_one,
    cast_two_pow, zpow_natCast]

theorem toNat_significand_pos (low : BitVec 52) : 0 < (1#1 ++ low).toNat := by
  rw [toNat_significand]
  exact Nat.add_pos_left (Nat.two_pow_pos 52) _

/-- A number is taken apart by its exponent: all bits set, all clear, or neither. -/
theorem unpack_eq (x : Float) :
    x.toModel.unpack =
      if exponentBits x = -1#11 then
        if significandBits x = 0#52 then .infinity (sign x) else .notANumber
      else if exponentBits x = 0#11 then
        if h : significandBits x = 0#52 then .zero (sign x)
        else .finite (sign x) (significandBits x).toNat ((exponentBits x).toNat - 1075 + 1)
          (Nat.pos_of_ne_zero fun hzero => h (BitVec.eq_of_toNat_eq hzero))
      else .finite (sign x) (1#1 ++ significandBits x).toNat ((exponentBits x).toNat - 1075)
        (toNat_significand_pos _) := rfl

/-- Its value is none, the significand's in units, or that of a significand with a leading bit. -/
theorem value?_eq_fields (x : Float) :
    value? x =
      if exponentBits x = -1#11 then none
      else if exponentBits x = 0#11 then
        some ((sign x).apply (significandBits x).toNat * (2 : ℚ) ^ (-1074 : ℤ))
      else
        some ((sign x).apply (1#1 ++ significandBits x).toNat *
          (2 : ℚ) ^ (((exponentBits x).toNat : ℤ) - 1075)) := by
  rw [value?, unpack_eq]
  by_cases hinfinite : exponentBits x = -1#11
  · rw [if_pos hinfinite, if_pos hinfinite]
    by_cases hzero : significandBits x = 0#52
    · rw [if_pos hzero]
      rfl
    · rw [if_neg hzero]
      rfl
  rw [if_neg hinfinite, if_neg hinfinite]
  by_cases hsubnormal : exponentBits x = 0#11
  · rw [if_pos hsubnormal, if_pos hsubnormal]
    by_cases hzero : significandBits x = 0#52
    · rw [dif_pos hzero, hzero]
      change some (0 : ℚ) = _
      cases sign x <;> simp [Sign.apply]
    · rw [dif_neg hzero, hsubnormal]
      rfl
  · rw [if_neg hsubnormal, if_neg hsubnormal]
    rfl

/-- **The value of a finite number is the units of its pattern**, with its sign. -/
theorem value?_eq (x : Float) :
    value? x =
      if magnitude x < infinity then some (signFactor x * (units (magnitude x) / unitsPerOne))
      else none := by
  rw [value?_eq_fields]
  by_cases hinfinite : exponentBits x = -1#11
  · rw [if_pos hinfinite, if_neg (Nat.not_lt.mpr ((exponentBits_eq_iff x).mp hinfinite))]
  rw [if_neg hinfinite, if_pos (Nat.not_le.mp (mt (exponentBits_eq_iff x).mpr hinfinite)),
    magnitude_eq, units_mul_add (significandBits x).isLt]
  by_cases hsubnormal : exponentBits x = 0#11
  · have hzero : (exponentBits x).toNat = 0 := by
      rw [hsubnormal]
      rfl
    rw [if_pos hsubnormal, if_pos hzero, cast_sign_apply, mul_assoc, mul_unit]
  · have hzero : (exponentBits x).toNat ≠ 0 := fun h => hsubnormal (BitVec.eq_of_toNat_eq h)
    rw [if_neg hsubnormal, if_neg hzero, cast_sign_apply, toNat_significand, mul_assoc,
      mul_unit_of_binade _ hzero]

/-! ## Rounding -/

/--
**The number `x`, of value `w`, is what `v` rounds to.** No finite number is nearer, and its
significand is even if one of another value is as near.
-/
structure Rounds (v : ℚ) (x : Float) (w : ℚ) : Prop where
  value : value? x = some w
  le : ∀ y u, value? y = some u → |v - w| ≤ |v - u|
  even : ∀ y u, value? y = some u → u ≠ w → |v - u| = |v - w| →
    (significandBits x).toNat % 2 = 0

/-- Distances in units. -/
theorem abs_sub_units (v : ℚ) (pattern : ℕ) :
    |v - units pattern / unitsPerOne| = |v * unitsPerOne - units pattern| / unitsPerOne := by
  have hunit := unitsPerOne_pos
  rw [← abs_of_pos hunit, ← abs_div, abs_of_pos hunit, sub_div, mul_div_cancel_right₀ _ hunit.ne']

/-- To a number that is not negative, no finite number is nearer than all patterns are. -/
theorem exists_pattern_of_value? {v u : ℚ} (hv : 0 ≤ v) {y : Float} (hy : value? y = some u) :
    ∃ pattern, |v - units pattern / unitsPerOne| ≤ |v - u| ∧
      (|v - units pattern / unitsPerOne| = |v - u| → u = units pattern / unitsPerOne) := by
  rw [value?_eq] at hy
  split at hy
  · obtain rfl := Option.some.inj hy
    unfold signFactor
    split
    · -- a negative number is behind zero
      have hzero : (units 0 : ℚ) / unitsPerOne = 0 := by
        rw [show units 0 = 0 from rfl, Nat.cast_zero, zero_div]
      have hunits : (0 : ℚ) ≤ units (magnitude y) / unitsPerOne :=
        div_nonneg (Nat.cast_nonneg _) unitsPerOne_pos.le
      refine ⟨0, ?_⟩
      rw [hzero, sub_zero, abs_of_nonneg hv, neg_one_mul, sub_neg_eq_add,
        abs_of_nonneg (by linarith)]
      exact ⟨by linarith, fun h => by linarith⟩
    · rw [one_mul]
      exact ⟨_, le_rfl, fun _ => rfl⟩
  · exact absurd hy (by simp)

/-- **The nearest pattern is that of the nearest number.** -/
theorem rounds_of_closest {v : ℚ} (hv : 0 ≤ v) {x : Float} (hx : Plain x)
    (h : Closest (v * unitsPerOne) (magnitude x)) :
    Rounds v x (units (magnitude x) / unitsPerOne) := by
  have hunit := unitsPerOne_pos
  have hle : ∀ pattern, |v - units (magnitude x) / unitsPerOne| ≤
      |v - units pattern / unitsPerOne| := by
    intro pattern
    rw [abs_sub_units, abs_sub_units]
    exact div_le_div_of_nonneg_right (h.le pattern) hunit.le
  refine ⟨?_, ?_, ?_⟩
  · rw [value?_eq, if_pos hx.finite, signFactor, hx.unsigned, if_neg Bool.false_ne_true, one_mul]
  · intro y u hy
    obtain ⟨pattern, hnear, _⟩ := exists_pattern_of_value? hv hy
    exact (hle pattern).trans hnear
  · intro y u hy hne hsame
    obtain ⟨pattern, hnear, heq⟩ := exists_pattern_of_value? hv hy
    have hpattern : |v - units pattern / unitsPerOne| = |v - units (magnitude x) / unitsPerOne| :=
      le_antisymm (hsame ▸ hnear) (hle pattern)
    have hu := heq (hpattern.trans hsame.symm)
    have hother : pattern ≠ magnitude x := by
      rintro rfl
      exact hne hu
    rw [abs_sub_units, abs_sub_units, div_left_inj' hunit.ne'] at hpattern
    have heven := h.even pattern hother hpattern
    have hbinade : Nat.pow 2 52 % 2 = 0 := by decide
    rw [magnitude_eq, Nat.add_mod, Nat.mul_mod, hbinade, Nat.mul_zero] at heven
    simpa using heven

end Binary64

namespace Decimal

/-- From the limit on a decimal is no number. -/
theorem toFloat?_eq_none_iff (d : Decimal) : d.toFloat? = none ↔ Binary64.limit ≤ d.value := by
  unfold toFloat?
  rcases pattern_spec d with ⟨hsmall, hfinite, _⟩ | ⟨hlarge, hinfinite⟩
  · rw [dif_pos hfinite]
    exact ⟨fun h => absurd h (by simp), fun h => absurd hsmall (not_lt.mpr h)⟩
  · rw [dif_neg (Nat.not_lt.mpr hinfinite)]
    exact ⟨fun _ => hlarge, fun _ => rfl⟩

/-- **Below it, it is the number that it rounds to**, with a clear sign bit. -/
theorem exists_toFloat? {d : Decimal} (h : d.value < Binary64.limit) :
    ∃ x w, d.toFloat? = some x ∧ Binary64.Plain x ∧ Binary64.Rounds d.value x w := by
  rcases pattern_spec d with ⟨_, hfinite, hclosest⟩ | ⟨hlarge, _⟩
  · have hx := Binary64.plain_ofPattern hfinite
    rw [← Binary64.magnitude_ofPattern hfinite] at hclosest
    exact ⟨Binary64.ofPattern d.pattern hfinite, _, dif_pos hfinite, hx,
      Binary64.rounds_of_closest d.value_nonneg hx hclosest⟩
  · exact absurd h (not_lt.mpr hlarge)

end Decimal

end Formula
