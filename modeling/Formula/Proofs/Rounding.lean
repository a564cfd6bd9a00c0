import Formula.Number.Shortest

/-!
# Numbers that are read exactly

Rounding does nothing to a quotient that is a binary64 value already (`nearest_of_eq_units`). The
exact value of a pattern is such a quotient, so it reads back, and with it the shortest decimal,
which is searched for among those that read back and is the exact one if there were none
(`pattern_ofPattern`).

The numbers a literal denotes are those that are finite and have a clear sign bit (`Plain`): in
both directions such a number is its pattern and nothing else.
-/

namespace Formula

namespace Binary64

/-! ## Rounding what needs no rounding -/

theorem roundHalfEven_mul {den : Nat} (hden : 0 < den) (n : Nat) :
    roundHalfEven (n * den) den = n := by
  unfold roundHalfEven
  rw [Nat.mul_div_cancel n hden, Nat.mul_mod_left]
  exact if_pos hden

/-- Where the leading bit of a value stands gives the binade, less the first two. -/
theorem log2_units {pattern : Nat} (h : pattern / Nat.pow 2 52 ≠ 0) :
    (units pattern).log2 = 52 + (pattern / Nat.pow 2 52 - 1) := by
  have hlow : pattern % Nat.pow 2 52 < Nat.pow 2 52 := Nat.mod_lt _ (by decide)
  rw [units, if_neg h]
  generalize pattern / Nat.pow 2 52 - 1 = doublings
  have hpos : 0 < Nat.pow 2 doublings := Nat.pow_pos (by decide)
  have hne : (Nat.pow 2 52 + pattern % Nat.pow 2 52) * Nat.pow 2 doublings ≠ 0 :=
    Nat.mul_ne_zero (by omega) (by omega)
  rw [Nat.log2_eq_iff hne, Nat.add_right_comm 52, Nat.pow_add 2 52, Nat.pow_add 2 (52 + 1)]
  exact ⟨Nat.mul_le_mul_right _ (Nat.le_add_right ..),
    Nat.mul_lt_mul_of_pos_right (Nat.add_lt_add_left hlow _) hpos⟩

/-- The implied bit carries into the binade that it stands for. -/
theorem binade_carry {pattern : Nat} (h : pattern / Nat.pow 2 52 ≠ 0) :
    (pattern / Nat.pow 2 52 - 1) * Nat.pow 2 52 + (Nat.pow 2 52 + pattern % Nat.pow 2 52) =
      pattern := by
  have hbinade : pattern / Nat.pow 2 52 - 1 + 1 = pattern / Nat.pow 2 52 :=
    Nat.sub_add_cancel (Nat.pos_of_ne_zero h)
  rw [← Nat.add_assoc, ← Nat.succ_mul, Nat.succ_eq_add_one, hbinade, Nat.mul_comm]
  exact Nat.div_add_mod ..

/-- **A quotient that is a binary64 value is rounded to that value.** -/
theorem nearest_of_eq_units {num den pattern : Nat} (hden : 0 < den)
    (h : num * unitsPerOne = units pattern * den) : nearest num den = pattern := by
  rw [nearest, h, Nat.mul_div_cancel _ hden]
  by_cases hbinade : pattern / Nat.pow 2 52 = 0
  · -- a subnormal value has few bits and is its own pattern
    have hsmall : pattern < Nat.pow 2 52 := by
      exact (Nat.div_eq_zero_iff_lt (Nat.two_pow_pos 52)).mp hbinade
    have hunits : units pattern = pattern := if_pos hbinade
    have hshift : pattern.log2 - 52 = 0 := by
      by_cases hzero : pattern = 0
      · rw [hzero]
        rfl
      · have hlog := (Nat.log2_lt hzero).mpr hsmall
        omega
    have hone : den * Nat.pow 2 0 = den := Nat.mul_one den
    rw [hunits, hshift, hone, Nat.zero_mul, Nat.zero_add, roundHalfEven_mul hden]
  · have hshift : (units pattern).log2 - 52 = pattern / Nat.pow 2 52 - 1 := by
      rw [log2_units hbinade]
      omega
    have hunits : units pattern = (Nat.pow 2 52 + pattern % Nat.pow 2 52) *
        Nat.pow 2 (pattern / Nat.pow 2 52 - 1) := if_neg hbinade
    have hpos : 0 < den * Nat.pow 2 (pattern / Nat.pow 2 52 - 1) :=
      Nat.mul_pos hden (Nat.pow_pos (by decide))
    rw [hshift, hunits, Nat.mul_assoc, Nat.mul_comm _ den, roundHalfEven_mul hpos]
    exact binade_carry hbinade

/-! ## Plain numbers -/

/-- A finite number whose sign bit is clear. -/
structure Plain (x : Float) : Prop where
  finite : magnitude x < infinity
  unsigned : isNegative x = false

theorem toNat_toBits_ofPattern {pattern : Nat} (h : pattern < infinity) :
    (ofPattern pattern h).toBits.toNat = pattern := by
  have hword : pattern < UInt64.size := Nat.lt_trans h (by decide)
  rw [toBits_ofPattern, UInt64.toNat_ofNat_of_lt' hword]

/-- The patterns of finite values leave the sign bit clear. -/
theorem lt_signBit_of_lt_infinity {pattern : Nat} (h : pattern < infinity) : pattern < signBit :=
  Nat.lt_trans h (by decide)

theorem magnitude_ofPattern {pattern : Nat} (h : pattern < infinity) :
    magnitude (ofPattern pattern h) = pattern := by
  rw [magnitude, toNat_toBits_ofPattern, Nat.mod_eq_of_lt (lt_signBit_of_lt_infinity h)]

theorem plain_ofPattern {pattern : Nat} (h : pattern < infinity) : Plain (ofPattern pattern h) where
  finite := by
    rw [magnitude_ofPattern]
    exact h
  unsigned := by
    rw [isNegative, toNat_toBits_ofPattern, decide_eq_false_iff_not, Nat.not_le]
    exact lt_signBit_of_lt_infinity h

/-- **A plain number is its pattern.** -/
theorem ofPattern_magnitude {x : Float} (hx : Plain x) : ofPattern (magnitude x) hx.finite = x := by
  have hclear : x.toBits.toNat < signBit := by
    have hunsigned := hx.unsigned
    rwa [isNegative, decide_eq_false_iff_not, Nat.not_le] at hunsigned
  have hmagnitude : magnitude x = x.toBits.toNat := Nat.mod_eq_of_lt hclear
  have hbits : UInt64.ofNat (magnitude x) = x.toBits := by
    rw [hmagnitude, UInt64.ofNat_toNat]
  obtain ⟨bits, valid⟩ := x
  rw [ofPattern, Float.ofModel.injEq, Float.Model.mk.injEq]
  exact hbits

end Binary64

namespace Decimal

/-- **What a literal denotes is a plain number**, and every pattern in range is one. -/
theorem toFloat?_eq_some_iff {d : Decimal} {x : Float} :
    d.toFloat? = some x ↔ Binary64.Plain x ∧ d.pattern = Binary64.magnitude x := by
  unfold toFloat?
  refine ⟨?_, ?_⟩
  · intro h
    split at h
    · rename_i hfinite
      cases h
      exact ⟨Binary64.plain_ofPattern hfinite, (Binary64.magnitude_ofPattern hfinite).symm⟩
    · exact absurd h (by simp)
  · intro h
    obtain ⟨hx, hpattern⟩ := h
    rw [dif_pos (hpattern ▸ hx.finite)]
    simp only [hpattern, Binary64.ofPattern_magnitude hx]

end Decimal

/-! ## The shortest decimal -/

namespace Shortest

/-- A value times a power of five has at least two bits for each five. -/
theorem le_log2_mul_pow_five {n : Nat} (h : n ≠ 0) (fives : Nat) :
    2 * fives ≤ (n * Nat.pow 5 fives).log2 := by
  have hpos : 0 < Nat.pow 5 fives := Nat.pow_pos (by decide)
  rw [Nat.le_log2 (Nat.mul_ne_zero h (Nat.ne_of_gt hpos)), Nat.pow_mul]
  calc (2 ^ 2) ^ fives
      ≤ Nat.pow 5 fives := Nat.pow_le_pow_left (by decide) fives
    _ ≤ n * Nat.pow 5 fives := Nat.le_mul_of_pos_left _ (Nat.pos_of_ne_zero h)

/-- No value but zero is no units. -/
theorem eq_zero_of_units_eq_zero {pattern : Nat} (h : Binary64.units pattern = 0) :
    pattern = 0 := by
  by_cases hbinade : pattern / Nat.pow 2 52 = 0
  · have hunits : Binary64.units pattern = pattern := if_pos hbinade
    rwa [hunits] at h
  · have hlog := Binary64.log2_units hbinade
    rw [h, Nat.log2_zero] at hlog
    omega

/-- Where one halved so many times is a unit, a unit is as many fives of the last of so many places,
and a value is written in them without loss. -/
theorem pattern_of_places {places fives : Nat} (hplaces : fives = places + 1)
    (hone : Binary64.unitsPerOne = Nat.pow 2 fives) (pattern : Nat) :
    Decimal.pattern ⟨Binary64.units pattern * Nat.pow 5 fives, .negSucc places⟩ = pattern := by
  have hpos : 0 < Nat.pow 5 fives := Nat.pow_pos (by decide)
  have htens : Nat.pow 5 fives * Nat.pow 2 fives = Nat.pow 10 fives := (Nat.mul_pow 5 2 fives).symm
  by_cases hzero : Binary64.units pattern = 0
  · rw [Decimal.pattern, hzero, Nat.zero_mul, if_pos rfl, eq_zero_of_units_eq_zero hzero]
  · have hbits := le_log2_mul_pow_five hzero fives
    rw [Decimal.pattern, if_neg (Nat.mul_ne_zero hzero (Nat.ne_of_gt hpos))]
    dsimp only
    rw [if_neg (by omega), ← hplaces]
    apply Binary64.nearest_of_eq_units (Nat.pow_pos (by decide))
    rw [hone, Nat.mul_assoc, htens, Nat.pow_eq]

/-- **The exact value of a pattern reads back as the pattern.** -/
theorem pattern_exact (pattern : Nat) : (exact pattern).pattern = pattern :=
  pattern_of_places rfl rfl pattern

theorem pattern_of_onGrid? {pattern scaled leading count : Nat} {d : Decimal}
    (h : onGrid? pattern scaled leading count = some d) : d.pattern = pattern := by
  unfold onGrid? at h
  dsimp only at h
  split at h
  · rename_i hbelow habove
    rw [← Option.some.inj h]
    split
    · exact beq_iff_eq.mp hbelow
    · exact beq_iff_eq.mp habove
  · rename_i hbelow _
    rw [← Option.some.inj h]
    exact beq_iff_eq.mp hbelow
  · rename_i _ habove
    rw [← Option.some.inj h]
    exact beq_iff_eq.mp habove
  · exact absurd h (by simp)

/-- **The decimal that a number is shown by reads back as the number.** -/
theorem pattern_ofPattern (pattern : Nat) : (ofPattern pattern).pattern = pattern := by
  rw [ofPattern]
  generalize hfound : List.findSome? _ _ = found
  cases found with
  | none => exact pattern_exact pattern
  | some d =>
      obtain ⟨_, _, hgrid⟩ := List.exists_of_findSome?_eq_some hfound
      exact pattern_of_onGrid? hgrid

end Shortest

end Formula
