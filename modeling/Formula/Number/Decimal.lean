import Formula.Number.Binary64

/-!
# Decimals: what a literal denotes, and how one is written

A decimal is a whole number of some power of ten. `ofChars?` reads one from the text of a literal
(digits with at most one point, then at most one exponent), `toFloat?` rounds it to the nearest
binary64 number and refuses it when that is infinite, and `toChars` writes it with neither exponent
nor sign.
-/

namespace Formula

/-- The number `digits * 10 ^ exponent`. -/
structure Decimal where
  digits : Nat
  exponent : Int
  deriving DecidableEq, Repr

namespace Decimal

/-! ## Reading -/

/-- The number a run of decimal digits denotes; it must hold one at least. -/
def natural? (cs : List Char) : Option Nat :=
  if !cs.isEmpty && cs.all Char.isDigit then some (Nat.ofDigitChars 10 cs 0) else none

/-- What follows an exponent mark: digits behind at most one sign. -/
def signed? : List Char → Option Int
  | '-' :: cs => (natural? cs).map fun n => -(n : Int)
  | '+' :: cs => (natural? cs).map fun n => (n : Int)
  | cs => (natural? cs).map fun n => (n : Int)

/-- The exponent behind the digits of a literal; an absent one is zero. -/
def exponent? : List Char → Option Int
  | [] => some 0
  | mark :: cs => if mark = 'e' ∨ mark = 'E' then signed? cs else none

/-- The digits behind a point, if one comes next, and what follows them. -/
def fraction : List Char → List Char × List Char
  | '.' :: cs => (cs.takeWhile Char.isDigit, cs.dropWhile Char.isDigit)
  | cs => ([], cs)

/--
Reads a literal: digits with at most one point among, before or behind them, then at most one
exponent. Each digit behind the point lowers the exponent by one.
-/
def ofChars? (cs : List Char) : Option Decimal :=
  let whole := cs.takeWhile Char.isDigit
  let behind := fraction (cs.dropWhile Char.isDigit)
  if whole.isEmpty && behind.1.isEmpty then none
  else (exponent? behind.2).map fun e =>
    ⟨Nat.ofDigitChars 10 (whole ++ behind.1) 0, e - behind.1.length⟩

/-! ## Rounding -/

/-- A positive whole number of ten to this power is above every finite value. -/
def hugeExponent : Int := 310

/-- A value below ten to the minus this rounds to zero. -/
def tinyPlaces : Nat := 400

/--
The pattern of the nearest binary64 value. The two tests in front of the division keep the powers of
ten in proportion to the literal's own length. A positive number of ten to the `hugeExponent` is too
large to be finite. A number with so many places that they outnumber its bits by `tinyPlaces` is
below 10^-400, for it has no more digits than bits.
-/
def pattern (d : Decimal) : Nat :=
  if d.digits = 0 then 0
  else
    match d.exponent with
    | .ofNat e =>
      if hugeExponent ≤ e then Binary64.infinity else Binary64.nearest (d.digits * Nat.pow 10 e) 1
    | .negSucc e =>
      if d.digits.log2 + 1 + tinyPlaces ≤ e + 1 then 0
      else Binary64.nearest d.digits (Nat.pow 10 (e + 1))

/-- The nearest binary64 number, if it is finite. -/
def toFloat? (d : Decimal) : Option Float :=
  if h : d.pattern < Binary64.infinity then some (Binary64.ofPattern d.pattern h) else none

/-! ## Writing -/

/-- The decimal `digits * 10 ^ -places` without the zeros that end its fraction. -/
def trimmed (digits : Nat) : Nat → Decimal
  | 0 => ⟨digits, 0⟩
  | places + 1 =>
    if digits % 10 = 0 then trimmed (digits / 10) places else ⟨digits, .negSucc places⟩

/-- The same number without zeros at the end of its fraction. -/
def trim (d : Decimal) : Decimal :=
  match d.exponent with
  | .ofNat _ => d
  | .negSucc e => trimmed d.digits (e + 1)

/--
Writes the digits positionally: zeros behind them for a positive exponent, and for a negative one
a point so many digits before the end, with one digit at least in front of it.
-/
def toChars (d : Decimal) : List Char :=
  let digits := Nat.toDigits 10 d.digits
  match d.exponent with
  | .ofNat e => digits ++ List.replicate e '0'
  | .negSucc e =>
    let padded := List.replicate (e + 2 - digits.length) '0' ++ digits
    let front := padded.length - (e + 1)
    padded.take front ++ '.' :: padded.drop front

end Decimal

end Formula
