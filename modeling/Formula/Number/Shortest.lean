import Formula.Number.Decimal

/-!
# The shortest decimal that reads back

A number is shown by the fewest digits that `Decimal.pattern` reads as the same number, and among
those by the nearest. For a count of digits only two decimals need a test, the value's neighbours
on that grid: if any decimal of the grid reads back, so does one of them. Seventeen digits always
suffice; the exact value stands behind them so that the answer reads back whatever the search does.
-/

namespace Formula.Shortest

/-- The most digits a shortest decimal has. -/
def maxDigits : Nat := 17

/-- The decimal places the search works at: enough to split the smallest value into many parts. -/
def scalePlaces : Nat := 400

/-- The value of a pattern, exactly: a unit of 2^-1074 is 5^1074 in units of 10^-1074. -/
def exact (pattern : Nat) : Decimal := ⟨Binary64.units pattern * Nat.pow 5 1074, -1074⟩

/--
The decimal with `count` digits that reads back as `pattern`, the nearer one if there are two, and
the greater if they are equally near. It has no zeros at the end of its fraction. `scaled` is the
value in units of 2^-1074 * 10^-400, and `leading` the number of digits of its whole multiple of
10^-400.
-/
def onGrid? (pattern scaled leading count : Nat) : Option Decimal :=
  let step := Nat.pow 10 (leading - count)
  let exponent : Int := (leading - count : Nat) - scalePlaces
  let low := scaled / (step * Binary64.unitsPerOne)
  let below := Decimal.trim ⟨low, exponent⟩
  let above := Decimal.trim ⟨low + 1, exponent⟩
  let nearerBelow := 2 * scaled < (2 * low + 1) * step * Binary64.unitsPerOne
  match below.pattern == pattern, above.pattern == pattern with
  | true, true => some (if nearerBelow then below else above)
  | true, false => some below
  | false, true => some above
  | false, false => none

/-- The shortest decimal that reads back as a finite pattern. -/
def ofPattern (pattern : Nat) : Decimal :=
  let scaled := Binary64.units pattern * Nat.pow 10 scalePlaces
  let leading := (Nat.toDigits 10 (scaled / Binary64.unitsPerOne)).length
  let found := (List.range maxDigits).findSome? fun n => onGrid? pattern scaled leading (n + 1)
  found.getD (exact pattern)

/--
A number as text: the shortest digits that read back, never with an exponent, a minus before a set
sign bit, and words for what is not finite.
-/
def text (x : Float) : String :=
  let pattern := Binary64.magnitude x
  if Binary64.infinity < pattern then "NaN"
  else
    let digits :=
      if pattern = Binary64.infinity then ['i', 'n', 'f'] else (ofPattern pattern).toChars
    String.ofList (if Binary64.isNegative x then '-' :: digits else digits)

end Formula.Shortest
