/-!
# Ranges of code points

A character class of the Unicode standard is a list of closed ranges of code points, in
increasing order. The classes here start at U+0080: below it a class is stated by hand, in
`Formula.Text.Class`, where it can be read.
-/

namespace Formula.Text

/-- Closed ranges of code points: the least and the greatest of each. -/
abbrev Ranges := List (Nat × Nat)

/-- Whether a code point lies in one of the ranges. -/
def Ranges.has (ranges : Ranges) (code : Nat) : Bool :=
  ranges.any fun range => range.1 ≤ code && code ≤ range.2

end Formula.Text
