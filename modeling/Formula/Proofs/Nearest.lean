import Mathlib.Algebra.Order.Field.Power
import Mathlib.Algebra.Order.Field.Rat
import Mathlib.Data.Rat.Cast.Order
import Mathlib.Order.Monotone.Basic
import Mathlib.Tactic.FieldSimp
import Mathlib.Tactic.Linarith
import Mathlib.Tactic.Positivity
import Mathlib.Tactic.Ring
import Formula.Proofs.Numeral

/-!
# The nearest number

Every pattern is a significand of 53 bits at most and a count of doublings (`exists_significand`),
and greater patterns are greater values. Rounding a quotient scales it to where neighbouring values
are one apart, and takes the nearest natural there. A value that is off this grid is below its first
point and so further away than that is, which is why the nearest point of the grid is the nearest
value of all (`closest_nearest`).

Distances are exact, in rationals. What is nearest says also which quotients are too large: those
from the middle between the greatest finite value and the first that is none
(`lt_infinity_iff_of_closest`).
-/

namespace Formula

namespace Binary64

/-! ## The nearest natural -/

/-- **Rounding moves by a half at most**, and by a half only to an even natural. -/
theorem roundHalfEven_spec (num : ℕ) {den : ℕ} (hden : 0 < den) :
    |(num : ℚ) / den - roundHalfEven num den| ≤ 1 / 2 ∧
      (|(num : ℚ) / den - roundHalfEven num den| = 1 / 2 → roundHalfEven num den % 2 = 0) := by
  have hpos : (0 : ℚ) < den := by exact_mod_cast hden
  have hquotient : (num : ℚ) / den = (num / den : ℕ) + ((num % den : ℕ) : ℚ) / den := by
    rw [eq_comm, eq_div_iff hpos.ne', add_mul, div_mul_cancel₀ _ hpos.ne']
    exact_mod_cast Nat.div_add_mod' num den
  have hexcess : 0 ≤ ((num % den : ℕ) : ℚ) / den := by positivity
  unfold roundHalfEven
  dsimp only
  rw [hquotient]
  generalize num / den = low
  split
  · rename_i hbelow
    have hhalf : ((num % den : ℕ) : ℚ) / den < 1 / 2 := by
      rw [div_lt_div_iff₀ hpos (by norm_num)]
      exact_mod_cast (by omega : num % den * 2 < 1 * den)
    rw [add_sub_cancel_left, abs_of_nonneg hexcess]
    exact ⟨hhalf.le, fun heq => absurd heq hhalf.ne⟩
  split
  · rename_i habove
    have hhalf : 1 / 2 < ((num % den : ℕ) : ℚ) / den := by
      rw [div_lt_div_iff₀ (by norm_num) hpos]
      exact_mod_cast (by omega : 1 * den < num % den * 2)
    have hone : ((num % den : ℕ) : ℚ) / den < 1 := by
      rw [div_lt_one hpos]
      exact_mod_cast Nat.mod_lt num hden
    rw [Nat.cast_add, Nat.cast_one, add_sub_add_left_eq_sub, abs_of_neg (by linarith)]
    exact ⟨by linarith, fun heq => by linarith⟩
  · have hhalf : ((num % den : ℕ) : ℚ) / den = 1 / 2 := by
      rw [div_eq_div_iff hpos.ne' (by norm_num)]
      exact_mod_cast (by omega : num % den * 2 = 1 * den)
    rw [Nat.cast_add, add_sub_add_left_eq_sub, hhalf]
    refine ⟨?_, fun _ => by omega⟩
    rcases Nat.mod_two_eq_zero_or_one low with hlow | hlow <;> rw [hlow] <;> norm_num

/-- No natural is nearer than one that is a half away at most. -/
theorem abs_sub_le_of_half {q : ℚ} {n : ℕ} (hhalf : |q - n| ≤ 1 / 2) (m : ℕ) :
    |q - n| ≤ |q - m| ∧ (m ≠ n → |q - m| = |q - n| → |q - n| = 1 / 2) := by
  by_cases hne : m = n
  · subst hne
    exact ⟨le_rfl, fun h => absurd rfl h⟩
  have hapart : (1 : ℚ) ≤ |(n : ℚ) - m| := by
    have hint : (1 : ℤ) ≤ |(n : ℤ) - m| := Int.one_le_abs (by omega)
    exact_mod_cast hint
  have htriangle : |(n : ℚ) - m| ≤ |q - n| + |q - m| := by
    rw [abs_sub_comm q n]
    exact abs_sub_le (n : ℚ) q m
  exact ⟨by linarith, fun _ heq => by linarith⟩

/-- A natural that is a half away at most is on the same side of every other natural. -/
theorem le_of_half {q : ℚ} {n m : ℕ} (hhalf : |q - n| ≤ 1 / 2) (hm : (m : ℚ) ≤ q) : m ≤ n := by
  have hnear := abs_le.mp hhalf
  have hlt : (m : ℚ) < (n + 1 : ℕ) := by
    push_cast
    linarith
  exact Nat.le_of_lt_succ (by exact_mod_cast hlt)

theorem ge_of_half {q : ℚ} {n m : ℕ} (hhalf : |q - n| ≤ 1 / 2) (hm : q ≤ m) : n ≤ m := by
  have hnear := abs_le.mp hhalf
  have hlt : (n : ℚ) < (m + 1 : ℕ) := by
    push_cast
    linarith
  exact Nat.le_of_lt_succ (by exact_mod_cast hlt)

/-! ## Significands -/

/-- The value of a pattern by its binade and its lowest bits. -/
theorem units_mul_add {binade low : ℕ} (hlow : low < Nat.pow 2 52) :
    units (binade * Nat.pow 2 52 + low) =
      if binade = 0 then low else (Nat.pow 2 52 + low) * Nat.pow 2 (binade - 1) := by
  have hdiv : (binade * Nat.pow 2 52 + low) / Nat.pow 2 52 = binade := by
    rw [Nat.add_comm, Nat.add_mul_div_right _ _ (by decide), Nat.div_eq_of_lt hlow, Nat.zero_add]
  have hmod : (binade * Nat.pow 2 52 + low) % Nat.pow 2 52 = low := by
    rw [Nat.add_comm, Nat.add_mul_mod_self_right, Nat.mod_eq_of_lt hlow]
  rw [units, hdiv, hmod]
  split
  · rename_i hzero
    rw [hzero, Nat.zero_mul, Nat.zero_add]
  · rfl

/-- Some doublings of a significand, which has 53 bits if there are any. -/
structure Significand (pattern doublings significand : ℕ) : Prop where
  pattern : pattern = doublings * Nat.pow 2 52 + significand
  normal : doublings = 0 ∨ Nat.pow 2 52 ≤ significand

/-- **A pattern's value is its significand doubled**, also where that carries into the next
binade. -/
theorem Significand.units_eq {pattern doublings significand : ℕ}
    (h : Significand pattern doublings significand) (hle : significand ≤ Nat.pow 2 53) :
    units pattern = significand * Nat.pow 2 doublings := by
  obtain ⟨rfl, hnormal⟩ := h
  have htwice : Nat.pow 2 53 = Nat.pow 2 52 + Nat.pow 2 52 := by decide
  by_cases hsubnormal : significand < Nat.pow 2 52
  · obtain rfl : doublings = 0 := hnormal.resolve_right (Nat.not_le.mpr hsubnormal)
    rw [units_mul_add hsubnormal, if_pos rfl]
    exact (Nat.mul_one _).symm
  obtain ⟨low, rfl⟩ := Nat.exists_eq_add_of_le (Nat.not_lt.mp hsubnormal)
  by_cases hcarry : low < Nat.pow 2 52
  · rw [← Nat.add_assoc, ← Nat.succ_mul, units_mul_add hcarry, if_neg (Nat.succ_ne_zero _)]
    rfl
  · obtain rfl : low = Nat.pow 2 52 := by omega
    have hsplit : doublings * Nat.pow 2 52 + (Nat.pow 2 52 + Nat.pow 2 52) =
        (doublings + 2) * Nat.pow 2 52 + 0 := by ring
    rw [hsplit, units_mul_add (by decide), if_neg (Nat.succ_ne_zero _), Nat.add_zero]
    have hdouble : Nat.pow 2 (doublings + 2 - 1) = Nat.pow 2 doublings * 2 := Nat.pow_succ ..
    rw [hdouble]
    ring

/-- Every pattern has a significand. -/
theorem exists_significand (pattern : ℕ) :
    ∃ doublings significand, Significand pattern doublings significand ∧
      significand < Nat.pow 2 53 := by
  have hlow : pattern % Nat.pow 2 52 < Nat.pow 2 52 := Nat.mod_lt _ (by decide)
  have htwice : Nat.pow 2 53 = Nat.pow 2 52 + Nat.pow 2 52 := by decide
  by_cases hbinade : pattern / Nat.pow 2 52 = 0
  · have hsmall : pattern < Nat.pow 2 52 := (Nat.div_eq_zero_iff_lt (by decide)).mp hbinade
    exact ⟨0, pattern, ⟨by omega, Or.inl rfl⟩, by omega⟩
  · exact ⟨_, _, ⟨(binade_carry hbinade).symm, Or.inr (Nat.le_add_right ..)⟩, by omega⟩

/-- **A greater pattern is a greater value.** -/
theorem units_strictMono : StrictMono units := by
  refine strictMono_nat_of_lt_succ fun pattern => ?_
  obtain ⟨doublings, significand, h, hlt⟩ := exists_significand pattern
  have hnext : Significand (pattern + 1) doublings (significand + 1) :=
    ⟨by rw [h.pattern, Nat.add_assoc], h.normal.imp_right Nat.le_succ_of_le⟩
  rw [h.units_eq hlt.le, hnext.units_eq hlt]
  exact Nat.mul_lt_mul_of_pos_right (Nat.lt_succ_self _) (Nat.two_pow_pos doublings)

/-- After so many doublings, values are on the grid that these make, or below the grid's first
point that has 53 bits. -/
theorem units_lt_or_on_grid (doublings pattern : ℕ) :
    (doublings ≠ 0 ∧ units pattern < Nat.pow 2 52 * Nat.pow 2 doublings) ∨
      ∃ point, units pattern = point * Nat.pow 2 doublings := by
  obtain ⟨less, significand, h, hlt⟩ := exists_significand pattern
  rw [h.units_eq hlt.le]
  rcases Nat.lt_or_ge less doublings with hbelow | hon
  · left
    obtain ⟨more, rfl⟩ := Nat.exists_eq_add_of_lt hbelow
    have hpow : Nat.pow 2 52 * Nat.pow 2 (less + more + 1) =
        Nat.pow 2 53 * Nat.pow 2 less * Nat.pow 2 more := by
      simp only [Nat.pow_eq]
      ring
    rw [hpow]
    exact ⟨Nat.succ_ne_zero _, Nat.lt_of_lt_of_le
      (Nat.mul_lt_mul_of_pos_right hlt (Nat.two_pow_pos less))
      (Nat.le_mul_of_pos_right _ (Nat.two_pow_pos more))⟩
  · right
    obtain ⟨more, rfl⟩ := Nat.exists_eq_add_of_le hon
    refine ⟨significand * Nat.pow 2 more, ?_⟩
    simp only [Nat.pow_eq]
    ring

/-! ## The nearest value -/

/-- **No value is nearer to so many units than the pattern's**, and if another is as near, the
pattern is even. -/
structure Closest (q : ℚ) (pattern : ℕ) : Prop where
  le : ∀ other, |q - units pattern| ≤ |q - units other|
  even : ∀ other, other ≠ pattern → |q - units other| = |q - units pattern| → pattern % 2 = 0

/-- Scaling leaves a quotient of 53 bits, or of no more if it is not scaled. -/
theorem scaling_bounds (num : ℕ) {den : ℕ} (hden : 0 < den) :
    num < 2 ^ 53 * (den * 2 ^ ((num / den).log2 - 52)) ∧
      ((num / den).log2 - 52 = 0 ∨ 2 ^ 52 * (den * 2 ^ ((num / den).log2 - 52)) ≤ num) := by
  have hcomm : ∀ bits doublings : ℕ,
      2 ^ bits * (den * 2 ^ doublings) = 2 ^ (bits + doublings) * den := by
    intro bits doublings
    rw [pow_add]
    ring
  rw [hcomm, hcomm, ← Nat.div_lt_iff_lt_mul hden, ← Nat.le_div_iff_mul_le hden]
  generalize num / den = quotient
  refine ⟨?_, ?_⟩
  · calc quotient
        < 2 ^ (quotient.log2 + 1) := Nat.lt_log2_self
      _ ≤ 2 ^ (53 + (quotient.log2 - 52)) := Nat.pow_le_pow_right (by decide) (by omega)
  · by_cases hscaled : quotient.log2 - 52 = 0
    · exact Or.inl hscaled
    · have hne : quotient ≠ 0 := by
        rintro rfl
        exact hscaled rfl
      have hlog : 52 + (quotient.log2 - 52) = quotient.log2 := by omega
      rw [hlog]
      exact Or.inr (Nat.log2_self_le hne)

/-- What rounding a quotient of units gives: the natural nearest to it after some doublings, and
the quotient is on the grid that these make. -/
theorem exists_rounded (num : ℕ) {den : ℕ} (hden : 0 < den) :
    ∃ (doublings significand : ℕ) (t : ℚ), Significand (nearest num den) doublings significand ∧
      significand ≤ Nat.pow 2 53 ∧
      ((num * unitsPerOne : ℕ) : ℚ) / den = t * 2 ^ doublings ∧
      |t - significand| ≤ 1 / 2 ∧ (|t - significand| = 1 / 2 → significand % 2 = 0) ∧
      (doublings = 0 ∨ 2 ^ 52 ≤ t) := by
  obtain ⟨hbelow, habove⟩ := scaling_bounds (num * unitsPerOne) hden
  unfold nearest
  dsimp only
  generalize num * unitsPerOne = scaled at *
  generalize (scaled / den).log2 - 52 = doublings at *
  have hscale : 0 < den * 2 ^ doublings := Nat.mul_pos hden (Nat.two_pow_pos doublings)
  have hpos : (0 : ℚ) < (den * 2 ^ doublings : ℕ) := by exact_mod_cast hscale
  obtain ⟨hhalf, heven⟩ := roundHalfEven_spec scaled hscale
  have hlt : (scaled : ℚ) / (den * 2 ^ doublings : ℕ) < (2 ^ 53 : ℕ) := by
    rw [div_lt_iff₀ hpos]
    exact_mod_cast hbelow
  have hle : doublings = 0 ∨ ((2 ^ 52 : ℕ) : ℚ) ≤ scaled / (den * 2 ^ doublings : ℕ) := by
    refine habove.imp_right fun h => ?_
    rw [le_div_iff₀ hpos]
    exact_mod_cast h
  refine ⟨doublings, _, _, ⟨rfl, hle.imp_right (le_of_half hhalf)⟩, ge_of_half hhalf hlt.le, ?_,
    hhalf, heven, by exact_mod_cast hle⟩
  have hden' : (den : ℚ) ≠ 0 := by exact_mod_cast hden.ne'
  rw [Nat.cast_mul, Nat.cast_pow, Nat.cast_ofNat]
  field_simp

/-- A distance on the grid is a distance of naturals, stretched. -/
theorem abs_sub_on_grid (t : ℚ) (doublings point : ℕ) :
    |t * 2 ^ doublings - (point * Nat.pow 2 doublings : ℕ)| = |t - point| * 2 ^ doublings := by
  have hpow : (0 : ℚ) < 2 ^ doublings := by positivity
  rw [Nat.cast_mul, Nat.pow_eq, Nat.cast_pow, Nat.cast_ofNat, ← sub_mul, abs_mul,
    abs_of_pos hpow]

/-- No value is nearer to what is on the grid than all points of the grid are. -/
theorem exists_point_of_units {t : ℚ} {doublings : ℕ} (hgrid : doublings = 0 ∨ 2 ^ 52 ≤ t)
    (other : ℕ) :
    ∃ point : ℕ, |t - point| * 2 ^ doublings ≤ |t * 2 ^ doublings - units other| ∧
      (|t - point| * 2 ^ doublings = |t * 2 ^ doublings - units other| →
        units other = point * Nat.pow 2 doublings) := by
  rcases units_lt_or_on_grid doublings other with ⟨hne, hbelow⟩ | ⟨point, hpoint⟩
  · -- below the grid its first point is nearer
    have hcast : (units other : ℚ) < 2 ^ 52 * 2 ^ doublings := by exact_mod_cast hbelow
    have ht := hgrid.resolve_left hne
    have hpow : (0 : ℚ) < 2 ^ doublings := by positivity
    have hprod := mul_le_mul_of_nonneg_right ht hpow.le
    have hnearer : |t - (2 ^ 52 : ℕ)| * 2 ^ doublings < |t * 2 ^ doublings - units other| := by
      rw [Nat.cast_pow, Nat.cast_ofNat, abs_of_nonneg (by linarith), abs_of_nonneg (by linarith),
        sub_mul]
      linarith
    exact ⟨2 ^ 52, hnearer.le, fun h => absurd h hnearer.ne⟩
  · have hdistance := abs_sub_on_grid t doublings point
    rw [← hpoint] at hdistance
    exact ⟨point, hdistance.ge, fun _ => hpoint⟩

/-- **Rounding finds the nearest value.** -/
theorem closest_nearest (num : ℕ) {den : ℕ} (hden : 0 < den) :
    Closest (((num * unitsPerOne : ℕ) : ℚ) / den) (nearest num den) := by
  obtain ⟨doublings, significand, t, hpattern, hle, hq, hhalf, heven, hgrid⟩ :=
    exists_rounded num hden
  have hpow : (0 : ℚ) < 2 ^ doublings := by positivity
  have hunits := hpattern.units_eq hle
  have hnear : ∀ point : ℕ, |t - significand| * 2 ^ doublings ≤ |t - point| * 2 ^ doublings :=
    fun point => mul_le_mul_of_nonneg_right (abs_sub_le_of_half hhalf point).1 hpow.le
  rw [hq]
  refine ⟨?_, ?_⟩
  · intro other
    obtain ⟨point, hpoint, _⟩ := exists_point_of_units hgrid other
    rw [hunits, abs_sub_on_grid]
    exact (hnear point).trans hpoint
  · intro other hother hsame
    obtain ⟨point, hpoint, heq⟩ := exists_point_of_units hgrid other
    rw [hunits, abs_sub_on_grid] at hsame
    have hdistance : |t - point| * 2 ^ doublings = |t - significand| * 2 ^ doublings :=
      le_antisymm (hsame ▸ hpoint) (hnear point)
    have hvalue := heq (hdistance.trans hsame.symm)
    have hne : point ≠ significand := by
      rintro rfl
      exact hother (units_strictMono.injective (hvalue.trans hunits.symm))
    have hsignificand := heven ((abs_sub_le_of_half hhalf point).2 hne
      (mul_right_cancel₀ hpow.ne' hdistance))
    have hbinades : Nat.pow 2 52 % 2 = 0 := by decide
    rw [hpattern.pattern, Nat.add_mod, Nat.mul_mod, hbinades, hsignificand, Nat.mul_zero]

/-! ## What is too large -/

/-- From here on no finite value is nearest: the middle between the greatest of them and two to the
1024th. -/
def limit : ℚ := 2 ^ 1024 - 2 ^ 970

theorem cast_two_pow (n : ℕ) : ((Nat.pow 2 n : ℕ) : ℚ) = 2 ^ n := by
  rw [Nat.pow_eq, Nat.cast_pow, Nat.cast_ofNat]

theorem cast_unitsPerOne : (unitsPerOne : ℚ) = 2 ^ 1074 := by
  have hpow : unitsPerOne = 2 ^ 1074 := by decide +kernel
  rw [hpow, Nat.cast_pow, Nat.cast_ofNat]

theorem unitsPerOne_pos : (0 : ℚ) < unitsPerOne := by
  rw [cast_unitsPerOne]
  positivity

/-- The first value of a binade and the last of the one before it. -/
theorem units_pred_add_units (doublings : ℕ) :
    (units ((doublings + 2) * Nat.pow 2 52 - 1) : ℚ) + units ((doublings + 2) * Nat.pow 2 52) =
      2 * (2 ^ 53 * 2 ^ doublings) - 2 ^ doublings := by
  have hpos : 0 < Nat.pow 2 52 := Nat.two_pow_pos 52
  have htwice : Nat.pow 2 53 = Nat.pow 2 52 + Nat.pow 2 52 := by decide
  have hfirst : Significand ((doublings + 2) * Nat.pow 2 52) doublings (Nat.pow 2 53) :=
    ⟨by rw [htwice]; ring, Or.inr (by decide)⟩
  have hlast : Significand ((doublings + 2) * Nat.pow 2 52 - 1) doublings (Nat.pow 2 53 - 1) := by
    refine ⟨?_, Or.inr (by decide)⟩
    rw [hfirst.pattern, Nat.add_sub_assoc (Nat.two_pow_pos 53)]
  rw [hfirst.units_eq le_rfl, hlast.units_eq (Nat.sub_le _ _), Nat.cast_mul, Nat.cast_mul,
    Nat.cast_pred (Nat.two_pow_pos 53), cast_two_pow, cast_two_pow]
  ring

/-- The limit is half-way between the greatest finite value and the first that is none. -/
theorem units_largest_add_units_infinity :
    (units (infinity - 1) : ℚ) + units infinity = 2 * (limit * unitsPerOne) := by
  have habove : (2 : ℚ) ^ 1024 * 2 ^ 1074 = 2 ^ 53 * 2 ^ 2045 := by rw [← pow_add, ← pow_add]
  have hbelow : (2 : ℚ) ^ 970 * 2 ^ 1074 * 2 = 2 ^ 2045 := by rw [← pow_add, ← pow_succ]
  rw [cast_unitsPerOne, limit, sub_mul, habove, mul_sub, mul_comm 2 (2 ^ 970 * 2 ^ 1074), hbelow]
  exact units_pred_add_units 2045

theorem units_largest_lt_units_infinity : (units (infinity - 1) : ℚ) < units infinity := by
  exact_mod_cast units_strictMono (by decide : infinity - 1 < infinity)

/-- From the limit on, infinity is as near as any finite value, and even. -/
theorem lt_limit_of_closest {q : ℚ} {pattern : ℕ} (h : Closest q pattern)
    (hfinite : pattern < infinity) : q < limit * unitsPerOne := by
  by_contra hlarge
  have hmiddle := units_largest_add_units_infinity
  have hstep := units_largest_lt_units_infinity
  have hbelow : (units pattern : ℚ) ≤ units (infinity - 1) := by
    exact_mod_cast units_strictMono.monotone (Nat.le_pred_of_lt hfinite)
  have hdistance : |q - units pattern| = q - units pattern := abs_of_nonneg (by linarith)
  have hnear := h.le infinity
  have hbound : |q - units infinity| ≤ q - units (infinity - 1) :=
    abs_le.mpr ⟨by linarith, by linarith⟩
  have hsame : |q - units infinity| = |q - units pattern| := by linarith
  have heven := h.even infinity (Nat.ne_of_gt hfinite) hsame
  -- the pattern is then the greatest finite one, which is odd
  have hunits : (units pattern : ℚ) = units (infinity - 1) := by linarith
  have hlargest : pattern = infinity - 1 := units_strictMono.injective (by exact_mod_cast hunits)
  rw [hlargest] at heven
  exact absurd heven (by decide)

/-- Below it, the greatest finite value is nearer than infinity and all behind it. -/
theorem lt_infinity_of_closest {q : ℚ} {pattern : ℕ} (h : Closest q pattern)
    (hsmall : q < limit * unitsPerOne) : pattern < infinity := by
  by_contra hlarge
  have hmiddle := units_largest_add_units_infinity
  have hstep := units_largest_lt_units_infinity
  have habove : (units infinity : ℚ) ≤ units pattern := by
    exact_mod_cast units_strictMono.monotone (Nat.not_lt.mp hlarge)
  have hnear := h.le (infinity - 1)
  have hbound : |q - units (infinity - 1)| < units pattern - q :=
    abs_lt.mpr ⟨by linarith, by linarith⟩
  rw [abs_sub_comm q (units pattern), abs_of_nonneg (by linarith)] at hnear
  linarith

/-- **What rounds to a finite value is below the limit.** -/
theorem lt_infinity_iff_of_closest {q : ℚ} {pattern : ℕ} (h : Closest q pattern) :
    pattern < infinity ↔ q < limit * unitsPerOne :=
  ⟨lt_limit_of_closest h, lt_infinity_of_closest h⟩

/-- Half a unit and less is nearest to no unit. -/
theorem closest_zero {q : ℚ} (hq : 0 ≤ q) (hhalf : q ≤ 1 / 2) : Closest q 0 where
  le := by
    intro other
    have hzero : |q - (0 : ℕ)| ≤ 1 / 2 := by
      rw [Nat.cast_zero, sub_zero, abs_of_nonneg hq]
      exact hhalf
    exact (abs_sub_le_of_half hzero (units other)).1
  even := fun _ _ _ => rfl

end Binary64

/-! ## The nearest number to a decimal -/

namespace Decimal

/-- The number that a decimal is. -/
def value (d : Decimal) : ℚ := d.digits * 10 ^ d.exponent

/-- Ten to the `hugeExponent` is above the limit. -/
theorem limit_le_of_huge {e : ℕ} (h : hugeExponent ≤ (e : ℤ)) : Binary64.limit ≤ 10 ^ e := by
  have hpow : (2 : ℚ) ^ 1024 ≤ 10 ^ 310 := by
    have hnat : 2 ^ 1024 ≤ 10 ^ 310 := by decide +kernel
    exact_mod_cast hnat
  have hexponent : 310 ≤ e := Int.ofNat_le.mp h
  calc Binary64.limit
      ≤ 2 ^ 1024 := sub_le_self _ (by positivity)
    _ ≤ 10 ^ 310 := hpow
    _ ≤ 10 ^ e := pow_le_pow_right₀ (by norm_num) hexponent

/-- Digits that so many places outnumber are half a unit at most. -/
theorem le_half_of_tiny {digits places : ℕ} (h : digits.log2 + 1 + tinyPlaces ≤ places) :
    ((digits * Binary64.unitsPerOne : ℕ) : ℚ) / (10 ^ places : ℕ) ≤ 1 / 2 := by
  have hunits : Binary64.unitsPerOne * 2 ≤ 10 ^ tinyPlaces := by decide +kernel
  have hdigits : digits ≤ 10 ^ (digits.log2 + 1) :=
    Nat.le_trans Nat.lt_log2_self.le (Nat.pow_le_pow_left (by decide) _)
  have hnat : digits * Binary64.unitsPerOne * 2 ≤ 10 ^ places :=
    calc digits * Binary64.unitsPerOne * 2
        = digits * (Binary64.unitsPerOne * 2) := Nat.mul_assoc ..
      _ ≤ 10 ^ (digits.log2 + 1) * 10 ^ tinyPlaces := Nat.mul_le_mul hdigits hunits
      _ = 10 ^ (digits.log2 + 1 + tinyPlaces) := (Nat.pow_add ..).symm
      _ ≤ 10 ^ places := Nat.pow_le_pow_right (by decide) h
  rw [div_le_div_iff₀ (by positivity) (by norm_num), one_mul]
  exact_mod_cast hnat

theorem value_nonneg (d : Decimal) : 0 ≤ d.value := by
  unfold value
  positivity

/-- No digits are no units. -/
theorem closest_of_zero (exponent : ℤ) :
    Binary64.Closest (value ⟨0, exponent⟩ * Binary64.unitsPerOne) (pattern ⟨0, exponent⟩) := by
  have hpattern : pattern ⟨0, exponent⟩ = 0 := if_pos rfl
  have hvalue : value ⟨0, exponent⟩ = 0 := by rw [value, Nat.cast_zero, zero_mul]
  rw [hpattern, hvalue, zero_mul]
  exact Binary64.closest_zero le_rfl (by norm_num)

/-- With digits behind the point, what is not tiny is rounded. -/
theorem closest_of_negSucc {digits : ℕ} (hzero : digits ≠ 0) (e : ℕ) :
    Binary64.Closest (value ⟨digits, .negSucc e⟩ * Binary64.unitsPerOne)
      (pattern ⟨digits, .negSucc e⟩) := by
  have hvalue : value ⟨digits, .negSucc e⟩ * Binary64.unitsPerOne =
      ((digits * Binary64.unitsPerOne : ℕ) : ℚ) / (10 ^ (e + 1) : ℕ) := by
    rw [value, zpow_negSucc, Nat.cast_mul, Nat.cast_pow, Nat.cast_ofNat]
    ring
  have hpattern : pattern ⟨digits, .negSucc e⟩ =
      if digits.log2 + 1 + tinyPlaces ≤ e + 1 then 0
      else Binary64.nearest digits (Nat.pow 10 (e + 1)) := if_neg hzero
  rw [hpattern]
  split
  · rename_i htiny
    refine Binary64.closest_zero (mul_nonneg (value_nonneg _) Binary64.unitsPerOne_pos.le) ?_
    rw [hvalue]
    exact le_half_of_tiny htiny
  · rw [hvalue]
    exact Binary64.closest_nearest digits (Nat.pow_pos (by decide))

/-- Without, what is not huge is. -/
theorem closest_or_huge_of_ofNat {digits : ℕ} (hzero : digits ≠ 0) (e : ℕ) :
    Binary64.Closest (value ⟨digits, .ofNat e⟩ * Binary64.unitsPerOne)
        (pattern ⟨digits, .ofNat e⟩) ∨
      (Binary64.limit ≤ value ⟨digits, .ofNat e⟩ ∧
        Binary64.infinity ≤ pattern ⟨digits, .ofNat e⟩) := by
  have hvalue : value ⟨digits, .ofNat e⟩ = digits * 10 ^ e := by
    rw [value]
    rfl
  rw [pattern_ofNat hzero, hvalue]
  split
  · rename_i hhuge
    have hone : (1 : ℚ) ≤ digits := by exact_mod_cast Nat.pos_of_ne_zero hzero
    exact Or.inr ⟨(limit_le_of_huge hhuge).trans (le_mul_of_one_le_left (by positivity) hone),
      le_rfl⟩
  · have hnearest := Binary64.closest_nearest (digits * Nat.pow 10 e) Nat.one_pos
    rw [Nat.cast_one, div_one, Nat.cast_mul, Nat.cast_mul, Nat.pow_eq, Nat.cast_pow,
      Nat.cast_ofNat] at hnearest
    exact Or.inl hnearest

/-- **A decimal is rounded to the nearest value**, unless it is too large. -/
theorem pattern_spec (d : Decimal) :
    (d.value < Binary64.limit ∧ d.pattern < Binary64.infinity ∧
        Binary64.Closest (d.value * Binary64.unitsPerOne) d.pattern) ∨
      (Binary64.limit ≤ d.value ∧ Binary64.infinity ≤ d.pattern) := by
  have hclosest : Binary64.Closest (d.value * Binary64.unitsPerOne) d.pattern ∨
      (Binary64.limit ≤ d.value ∧ Binary64.infinity ≤ d.pattern) := by
    obtain ⟨digits, exponent⟩ := d
    by_cases hzero : digits = 0
    · subst hzero
      exact Or.inl (closest_of_zero exponent)
    · cases exponent with
      | ofNat e => exact closest_or_huge_of_ofNat hzero e
      | negSucc e => exact Or.inl (closest_of_negSucc hzero e)
  rcases hclosest with h | hhuge
  · -- what is nearest is finite below the limit only
    have hfinite := Binary64.lt_infinity_iff_of_closest h
    rw [mul_lt_mul_iff_left₀ Binary64.unitsPerOne_pos] at hfinite
    rcases lt_or_ge d.value Binary64.limit with hsmall | hlarge
    · exact Or.inl ⟨hsmall, hfinite.mpr hsmall, h⟩
    · exact Or.inr ⟨hlarge, Nat.not_lt.mp (mt hfinite.mp (not_lt.mpr hlarge))⟩
  · exact Or.inr hhuge

end Decimal

end Formula
