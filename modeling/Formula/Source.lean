import Formula.Text.Utf8

/-!
# The source of a formula

What can be read of a formula: its characters up to the first malformed byte, and whether there
is one. Nothing behind a malformed byte is ever looked at.
-/

namespace Formula

/-- The readable characters of a formula, and whether malformed bytes follow them. -/
structure Source where
  chars : List Char
  broken : Bool
  deriving DecidableEq, Repr

namespace Source

/-- Reads bytes as far as they are well formed. -/
def ofBytes (bytes : List UInt8) : Source :=
  let read := Utf8.readable bytes
  ⟨read.1, !read.2.isEmpty⟩

/-- Text is readable to its end. -/
def ofString (text : String) : Source := ⟨text.toList, false⟩

end Source

end Formula
