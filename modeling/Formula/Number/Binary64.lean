/-!
# Binary64 numbers, counted in their smallest unit

The finite binary64 values that are not negative are the patterns below `infinity`, in order: a
greater pattern is a greater value. Every one of them is a whole number of units of 2^-1074, given
by `units`, and `nearest` finds the pattern closest to any quotient of naturals, a tie going to the
even pattern. Patterns at or above `infinity` are what a quotient too large to be finite rounds to.

Both directions are exact arithmetic on naturals, so a text can be read and written without a step
that rounds twice.
-/

namespace Formula.Binary64

/-- The first pattern that is no finite value: all exponent bits are set. -/
def infinity : Nat := 2047 * Nat.pow 2 52

/-- The weight of the sign bit. -/
def signBit : Nat := Nat.pow 2 63

/-- How many units make one. -/
def unitsPerOne : Nat := Nat.pow 2 1074

/--
The value of a pattern, in units of 2^-1074. The bits above the lowest 52 count binades. The first
binade holds the subnormal values, whose unit is the pattern's own; from the second on a leading
bit is implied and the unit doubles with each binade.
-/
def units (pattern : Nat) : Nat :=
  let binade := pattern / Nat.pow 2 52
  if binade = 0 then pattern
  else (Nat.pow 2 52 + pattern % Nat.pow 2 52) * Nat.pow 2 (binade - 1)

/-- The natural nearest to `num / den`; halfway between two it is the even one. -/
def roundHalfEven (num den : Nat) : Nat :=
  let low := num / den
  let excess := 2 * (num % den)
  if excess < den then low
  else if den < excess then low + 1
  else low + low % 2

/--
The pattern nearest to `num / den`, as if exponents had no upper end. `shift` is the number of
doublings that leave a significand of 53 bits, or none for a value that has no more as it is. A
significand rounded up to 2^53 carries into the binade bits, which is where it belongs.
-/
def nearest (num den : Nat) : Nat :=
  let scaled := num * unitsPerOne
  let shift := Nat.log2 (scaled / den) - 52
  shift * Nat.pow 2 52 + roundHalfEven scaled (den * Nat.pow 2 shift)

/-- A pattern below `infinity` is not that of a NaN. -/
theorem valid_of_lt_infinity {pattern : Nat} (h : pattern < infinity) :
    Float.Model.Format.binary64.Valid (UInt64.ofNat pattern).toBitVec := by
  refine ⟨fun exponent _ => ?_⟩
  exfalso
  have bits := congrArg BitVec.toNat exponent
  have small : pattern < Nat.pow 2 64 := Nat.lt_trans h (by decide)
  simp [Float.Model.UnpackedFloat.unpackExponent, Nat.shiftRight_eq_div_pow] at bits
  simp only [infinity, Nat.pow_eq] at h small
  omega

/-- The binary64 number with the given pattern. -/
def ofPattern (pattern : Nat) (h : pattern < infinity) : Float :=
  .ofModel ⟨UInt64.ofNat pattern, valid_of_lt_infinity h⟩

theorem toBits_ofPattern {pattern : Nat} (h : pattern < infinity) :
    (ofPattern pattern h).toBits = UInt64.ofNat pattern := rfl

/-- The pattern of a number's magnitude: its bits without the sign. -/
def magnitude (x : Float) : Nat := x.toBits.toNat % signBit

/-- Whether the sign bit is set; it is for -0.0 too. -/
def isNegative (x : Float) : Bool := signBit ≤ x.toBits.toNat

end Formula.Binary64
